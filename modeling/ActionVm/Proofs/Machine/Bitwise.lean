import ActionVm.Host.Call
import ActionVm.Machine.Actions
import ActionVm.Proofs.Decimal.Conversion

/-!
# Bitwise actions

Bitwise actions and compare-and-swap work on 32-bit integers. What they take is converted exactly,
and they do not tell an integer from the same number as a double.

* `Value.SameNumber`: one number in its two forms, with `SameNumber.toInt32`;
* `Op.IsBitwise`, `perform_bitwise`: bitwise actions rest on the integers of their operands;
* `compareAndSwap_congr`: so does compare-and-swap;
* **`integers_exact`**: conversions to integers, and what works on them.
-/

namespace ActionVm

/-- Values that are equal, or one integer in its two forms. -/
inductive Value.SameNumber : Value → Value → Prop
  | refl (v : Value) : SameNumber v v
  | ofInteger (i : Int32) : SameNumber (.integer i) (.number (Float.ofInt i.toInt))
  | ofNumber (i : Int32) : SameNumber (.number (Float.ofInt i.toInt)) (.integer i)

namespace Value.SameNumber

variable {v v' : Value}

theorem toInt32 (h : v.SameNumber v') : v.toInt32 = v'.toInt32 := by
  cases h with
  | refl => rfl
  | ofInteger i => exact (toInt32_ofInt i).symm
  | ofNumber i => exact toInt32_ofInt i

theorem toUInt32 (h : v.SameNumber v') : v.toUInt32 = v'.toUInt32 :=
  congrArg Int32.toUInt32 h.toInt32

end Value.SameNumber

/-! ## Bitwise actions -/

/-- What an action makes of the bits of two integers, if it works on bits. -/
def Op.bits? (o : Op) (b a : Int32) : Option Value :=
  match o with
  | .bitAnd => some (.integer (b &&& a))
  | .bitOr => some (.integer (b ||| a))
  | .bitXor => some (.integer (b ^^^ a))
  | .bitLShift => some (.integer (b <<< (a &&& 31)))
  | .bitRShift => some (.integer (b >>> (a &&& 31)))
  | .bitURShift => some (.number (Float.ofNat (b.toUInt32 >>> (a.toUInt32 &&& 31)).toNat))
  | _ => none

/-- The actions that work on bits. -/
def bitwiseOps : List Op := [.bitAnd, .bitOr, .bitXor, .bitLShift, .bitRShift, .bitURShift]

theorem exists_bits? {o : Op} (ho : o ∈ bitwiseOps) (b a : Int32) : ∃ v, o.bits? b a = some v := by
  simp only [bitwiseOps, List.mem_cons, List.not_mem_nil, or_false] at ho
  rcases ho with rfl | rfl | rfl | rfl | rfl | rfl <;> exact ⟨_, rfl⟩

/-- **A bitwise action** takes two operands, and gives what it makes of their integers. -/
theorem perform_of_bits? (e : Embedding) {o : Op} {c : Context} (s : State) {v : Value}
    (h : o.bits? c.pop.peek.toInt32 c.peek.toInt32 = some v) :
    perform e (.op o) (c, s) = (.ok .next, c.pop.pop.push v, s) := by
  cases o with
  | bitAnd | bitOr | bitXor | bitLShift | bitRShift | bitURShift =>
    cases h
    rfl
  | _ => cases h

/-! ## Compare-and-swap -/

theorem argument_sameNumber {args args' : List Value}
    (h : List.Forall₂ Value.SameNumber args args') (i : ℕ) :
    (Host.argument args i).SameNumber (Host.argument args' i) := by
  induction h generalizing i with
  | nil => exact .refl _
  | cons hv _ ih =>
    cases i with
    | zero => exact hv
    | succ i => exact ih i

/-- **Compare-and-swap** rests on the integers of its arguments. -/
theorem compareAndSwap_congr {args args' : List Value}
    (h : List.Forall₂ Value.SameNumber args args') :
    Host.compareAndSwap args = Host.compareAndSwap args' := by
  have hint : ∀ i, (Host.argument args i).toInt32 = (Host.argument args' i).toInt32 := fun i =>
    (argument_sameNumber h i).toInt32
  have hword : ∀ i, (Host.argument args i).toUInt32 = (Host.argument args' i).toUInt32 := fun i =>
    (argument_sameNumber h i).toUInt32
  rw [Host.compareAndSwap, Host.compareAndSwap, Host.expect, Host.expect, h.length_eq]
  simp only [hint, hword]

/-! ## Integers -/

section Exact

variable {x : Float} {b : Binary}

theorem toInt32_number (h : Reading.ofFloat x = .finite b) :
    (Value.number x).toInt32 = Int32.ofInt (cutOff b.toRat) :=
  (toInt32_of_finite h).trans (congrArg Int32.ofInt b.truncated_eq)

/-- A finite number as an unsigned word. -/
theorem toNat_toUInt32_number (h : Reading.ofFloat x = .finite b) :
    ((Value.number x).toUInt32.toNat : ℤ) = cutOff b.toRat % 2 ^ 32 := by
  rw [Value.toUInt32, toInt32_number h]
  change ((BitVec.ofInt 32 (cutOff b.toRat)).toNat : ℤ) = _
  rw [BitVec.toNat_ofInt]
  exact Int.toNat_of_nonneg (Int.emod_nonneg _ (by decide))

/-- A finite number as a signed word. -/
theorem toInt_toInt32_number (h : Reading.ofFloat x = .finite b) :
    (Value.number x).toInt32.toInt ≡ cutOff b.toRat [ZMOD 2 ^ 32] := by
  rw [toInt32_number h, Int32.toInt_ofInt]
  exact Int.bmod_emod

theorem toInt32_number_of_not_finite (h : x.isFinite = false) : (Value.number x).toInt32 = 0 := by
  refine toInt32_of_not_finite fun b hb => Bool.false_ne_true ?_
  exact h.symm.trans (isFinite_iff.mpr ⟨b, hb⟩)

end Exact

/-- **Integers are exact.** A finite number converts to its integer part modulo `2 ^ 32`, as an
unsigned word, and to the signed word that is congruent to it; NaN and the infinities convert to
zero. An integer converts like the same number as a double, so that bitwise actions and
compare-and-swap do not tell the two forms apart. -/
theorem integers_exact :
    (∀ x : Float, x.isFinite = true → ∃ b, Reading.ofFloat x = .finite b ∧
      ((Value.number x).toUInt32.toNat : ℤ) = cutOff b.toRat % 2 ^ 32 ∧
      (Value.number x).toInt32.toInt ≡ cutOff b.toRat [ZMOD 2 ^ 32] ∧
      -2 ^ 31 ≤ (Value.number x).toInt32.toInt ∧ (Value.number x).toInt32.toInt < 2 ^ 31) ∧
    (∀ x : Float, x.isFinite = false →
      (Value.number x).toInt32 = 0 ∧ (Value.number x).toUInt32 = 0) ∧
    (∀ i : Int32, (∃ b, Reading.ofFloat (Float.ofInt i.toInt) = .finite b ∧ b.toRat = i.toInt) ∧
      (Value.number (Float.ofInt i.toInt)).toInt32 = (Value.integer i).toInt32 ∧
      (Value.number (Float.ofInt i.toInt)).toUInt32 = (Value.integer i).toUInt32) ∧
    (∀ (e : Embedding) (s : State), ∀ o ∈ bitwiseOps, ∀ c c' : Context,
      c.peek.SameNumber c'.peek → c.pop.peek.SameNumber c'.pop.peek → c.pop.pop = c'.pop.pop →
      ∃ v, perform e (.op o) (c, s) = (.ok .next, c.pop.pop.push v, s) ∧
        perform e (.op o) (c', s) = (.ok .next, c.pop.pop.push v, s)) ∧
    (∀ (e : Embedding) (this : Value) (args args' : List Value),
      List.Forall₂ Value.SameNumber args args' →
      HostFunction.run e this args .compareAndSwap =
        HostFunction.run e this args' .compareAndSwap) := by
  refine ⟨fun x hx => ?_, fun x hx => ?_, fun i => ?_,
    fun e s o ho c c' hlast hother hrest => ?_, fun e this args args' h => ?_⟩
  · obtain ⟨b, h⟩ := isFinite_iff.mp hx
    exact ⟨b, h, toNat_toUInt32_number h, toInt_toInt32_number h, Int32.le_toInt _,
      Int32.toInt_lt _⟩
  · have hzero := toInt32_number_of_not_finite hx
    exact ⟨hzero, congrArg Int32.toUInt32 hzero⟩
  · obtain ⟨b, hread, hb⟩ := Reading.ofFloat_ofInt (Int32.natAbs_toInt_lt i)
    exact ⟨⟨b, hread, hb.toRat⟩, toInt32_ofInt i, congrArg Int32.toUInt32 (toInt32_ofInt i)⟩
  · obtain ⟨v, hv⟩ := exists_bits? ho c.pop.peek.toInt32 c.peek.toInt32
    refine ⟨v, perform_of_bits? e s hv, ?_⟩
    rw [hlast.toInt32, hother.toInt32] at hv
    rw [perform_of_bits? e s hv, hrest]
  · rw [HostFunction.run, HostFunction.run, compareAndSwap_congr h]

end ActionVm
